import Chaos.WindowsTasks

/-!
# Where `Stop` returns on Windows

The broadcast of `Stop` is an event that stays set until somebody resets it. A worker that resets it while another one
has not come through its wait leaves that one there, and `Stop` joins it and does not return. `EventKept` says that
this has not happened; it is so in every state just when no worker resets the event while another is asleep.
-/
namespace Chaos

open GuardedRuns Threads

namespace WindowsPool

open ThreadPool

/-- With the flag down the broadcast is to come, or the event is set, or nobody is asleep. -/
def EventKept (s : WindowsPool) : Prop :=
  s.pool.running = false → (∃ c : ℕ, s.pool.stops[c]? = some .broadcasting) ∨ s.cond.cond = true ∨ ∀ i, ¬ s.Asleep i

/-- With the flag down a worker resets the event before the broadcast, or when nobody is asleep. -/
def resetOk (s : WindowsPool) : ThreadPoolOp → Prop
  | .work i => s.pool.workers[i]? = some .blocked → s.waitPc i = .resetEvent → s.pool.running = false →
    (∃ c : ℕ, s.pool.stops[c]? = some .broadcasting) ∨ ∀ j, ¬ s.Asleep j
  | _ => True

section Kept
variable {s t : WindowsPool} {op : ThreadPoolOp} {i : ℕ}

theorem EventKept.still (h : EventKept s) (hstill : Still s.pool t.pool) (hwait : t.waitPc = s.waitPc)
    (hcond : t.cond = s.cond) : EventKept t := by
  intro hrun
  rw [hcond]
  rcases hstill.cleared hrun with hclear | hsend
  · rcases h hclear with ⟨c, hc⟩ | hset | hnone
    · exact .inl ⟨c, hstill.broadcasting c hc⟩
    · exact .inr (.inl hset)
    · exact .inr (.inr fun i hi => hnone i ((asleep_iff_still hstill hwait).mp hi))
  · exact .inl hsend

/-- The step has nothing to do with who is asleep but that some may be awake. -/
theorem EventKept.awake (h : EventKept s) (hrun : t.pool.running = s.pool.running) (hstops : t.pool.stops = s.pool.stops)
    (hcond : t.cond.cond = s.cond.cond) (hasleep : ∀ i, t.Asleep i → s.Asleep i) : EventKept t := by
  intro hclear
  rw [hstops, hcond]
  rcases h (hrun.symm.trans hclear) with hsend | hset | hnone
  · exact .inl hsend
  · exact .inr (.inl hset)
  · exact .inr (.inr fun i hi => hnone i (hasleep i hi))

theorem eventKept_of_set (hset : t.cond.cond = true) : EventKept t := fun _ => .inr (.inl hset)

theorem asleep_goWait {pc : CondWaitPc} {cond : Condition} (hself : (pc = .count ∨ pc = .wait) → s.Asleep i) {j : ℕ}
    (hj : (s.goWait i pc cond).Asleep j) : s.Asleep j := by
  by_cases hji : j = i
  · subst hji
    have hpc := hj.2
    rw [show (s.goWait j pc cond).waitPc j = pc from Function.update_self ..] at hpc
    exact hself hpc
  · refine ⟨hj.1, ?_⟩
    rw [← show (s.goWait i pc cond).waitPc j = s.waitPc j from Function.update_of_ne hji ..]
    exact hj.2

/-- Who resets the event leaves the others as they are. -/
theorem eventKept_reset {cond : Condition} (hset : cond.cond = false) (hpc : s.waitPc i = .resetEvent) :
    EventKept (s.goWait i .storeNormal cond) ↔ (s.pool.running = false →
      (∃ c : ℕ, s.pool.stops[c]? = some .broadcasting) ∨ ∀ j, ¬ s.Asleep j) := by
  have hiff (j : ℕ) : (s.goWait i .storeNormal cond).Asleep j ↔ s.Asleep j := by
    by_cases hji : j = i
    · subst hji
      simp [Asleep, goWait, hpc]
    · simp [Asleep, goWait, Function.update_of_ne hji]
  constructor
  · intro h hrun
    rcases h hrun with hsend | hcond | hnone
    · exact .inl hsend
    · cases hset.symm.trans hcond
    · exact .inr fun j hj => hnone j ((hiff j).mpr hj)
  · intro h hrun
    cases h hrun with
    | inl hsend => exact .inl hsend
    | inr hnone => exact .inr (.inr fun j hj => hnone j ((hiff j).mp hj))

/-- The step lemma. -/
theorem eventKept_step (h : EventKept s) (hcarried : Carried s.pool) (ht : WindowsPass s op t) :
    EventKept t ↔ resetOk s op := by
  cases ht with
  | @plain op p hplain hp =>
    apply iff_of_true
    · refine h.still (still_of_pass hp ?_ ?_ ?_) rfl rfl
      · rintro i rfl
        exact hplain
      · rintro k j rfl
        exact hplain
      · rintro c rfl
        exact hplain.2
    · cases op with
      | work i =>
        intro hi
        exact absurd hi hplain.2
      | run | startThread | pushTask | stepPush | stop | stepStop | destroy | destroyJoin => trivial
  | @enters i hi =>
    apply iff_of_true
    · intro hrun
      cases hrun.symm.trans (hcarried.waits i hi).2
    · intro hblocked
      cases hi.symm.trans hblocked
  | @goes i pc cond hi hmove =>
    by_cases hpc : s.waitPc i = .resetEvent
    · rw [hpc] at hmove
      cases hmove
      rw [eventKept_reset rfl hpc, resetOk]
      exact ⟨fun hkept _ _ => hkept, fun hok => hok hi hpc⟩
    · apply iff_of_true
      · rcases waitMove_cases hmove with hstores | ⟨hset, -, -, hasleep⟩
        · subst hstores
          generalize hw : s.waitPc i = w at hmove hpc
          cases hmove
          exact absurd rfl hpc
        · exact h.awake rfl rfl hset fun j => asleep_goWait fun hself => ⟨hi, .inl (hasleep hself)⟩
      · exact fun _ hreset => absurd hreset hpc
  | @leaves i cond hi hend =>
    apply iff_of_true
    · have hset : cond.cond = s.cond.cond := by
        generalize s.waitPc i = pc at hend
        cases hend <;> rfl
      refine h.awake rfl rfl hset fun j hj => ?_
      have hji : j ≠ i := by
        rintro rfl
        exact not_asleep_of_ne (set_self hi) WorkerPc.noConfusion hj
      exact ⟨(set_of_ne hji).symm.trans hj.1, hj.2⟩
    · intro _ hpc
      rw [hpc] at hend
      cases hend
  | emplace | skips | reads | storeSingle => exact iff_of_true (h.awake rfl rfl rfl fun _ hi => hi) trivial
  | signal | broadcast => exact iff_of_true (eventKept_of_set rfl) trivial
  | @test c p hc hp =>
    refine iff_of_true (h.still (still_of_pass hp ?_ ?_ ?_) rfl rfl) trivial
    · exact nofun
    · exact nofun
    · intro d hd hbroadcasting
      cases hd
      cases hc.symm.trans hbroadcasting
  | storeBroadcast => exact iff_of_true (h.awake rfl rfl rfl fun _ hi => hi) trivial

end Kept

section Rest
variable {s : WindowsPool}

/-- At rest with the flag down the threads have ended just when none was left in its wait. -/
theorem AtRest.ended_iff (h : AtRest s) (hcarried : Carried s.pool) (hrun : s.pool.running = false) :
    EventKept s ↔ s.pool.Ended := by
  constructor
  · intro hkept
    have howner := h.pool.owner hcarried.held hcarried.tested
    apply h.pool.ended howner hcarried.tested hcarried.phase hcarried.tasks hrun
    intro hmem
    obtain ⟨i, hi⟩ := List.getElem?_of_mem hmem
    obtain ⟨hclear, hpc⟩ := h.blocked hi
    rcases hkept hrun with ⟨c, hc⟩ | hset | hnone
    · cases h.pool.stop hc
    · cases hclear.symm.trans hset
    · exact hnone i ⟨hi, .inr hpc⟩
  · intro hended _
    refine .inr (.inr fun i hi => ?_)
    have hpc := hended.workers _ (List.mem_of_getElem? hi.1)
    split at hpc <;> cases hpc

end Rest

/-- Worker 0 has given the mutex back and is not counted yet when `Stop` sends its broadcast; worker 1 finds that it is
the last one counted and resets the event, and worker 0 comes to the wait behind it. -/
def windowsHang : List ThreadPoolOp :=
  [.run, .startThread, .startThread, .startThread] ++ List.replicate 4 (.work 0) ++ List.replicate 5 (.work 1) ++
    .stop :: List.replicate 4 (.stepStop 0) ++ List.replicate 7 (.work 1) ++ .work 0 :: List.replicate 4 (.work 1)

theorem windowsHang_isSome : (exec WindowsPool.step (.new 2 8) windowsHang).isSome = true := by decide +kernel

def windowsHangEnd : WindowsPool := (exec WindowsPool.step (.new 2 8) windowsHang).get windowsHang_isSome

end WindowsPool

end Chaos
