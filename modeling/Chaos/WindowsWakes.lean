import Chaos.PoolProgress
import Chaos.WindowsRefines

/-!
# Who is woken on Windows

A worker that resets the event takes the signal of others with it, but it goes to the queue itself. So as long as a
task is queued a worker is on its way to the queue, or the event is set, or a signal is going to be sent.
-/
namespace Chaos

open GuardedRuns Threads

namespace ThreadPool

/-! ## What is the same for both pools -/

section Behind
variable {s : ThreadPool} {xs : List WorkerPc} {x y : WorkerPc}

/-- What is known of a pool whose workers may be woken later. -/
structure Carried (s : ThreadPool) : Prop where
  held : Held s
  mutex : Exclusive s.owner s.inside
  tested : Tested s
  phase : Phase s
  apart : CallsApart s
  tasks : TasksKept s
  manned : s.workers ≠ []
  waits : ∀ i : ℕ, s.workers[i]? = some .waiting → s.queue = [] ∧ s.running = true
  starting : ∀ j, s.caller = .starting j → s.running = true

theorem Ahead.eq_of_ne_woken (h : Ahead x y) (hx : x ≠ .woken) : y = x := by
  cases h with
  | inl heq => exact heq.symm
  | inr hwoken => exact absurd hwoken.1 hx

theorem ahead_get_of_ne_woken {i : ℕ} (h : List.Forall₂ Ahead xs s.workers) (hi : xs[i]? = some x) (hx : x ≠ .woken) :
    s.workers[i]? = some x := by
  obtain ⟨y, hy, hxy⟩ := forall₂_get_right h hi
  exact hxy.eq_of_ne_woken hx ▸ hy

theorem ahead_mem {i : ℕ} (h : List.Forall₂ Ahead xs s.workers) (hi : s.workers[i]? = some y) :
    ∃ x ∈ xs, Ahead x y := by
  obtain ⟨x, hx, hxy⟩ := forall₂_get h hi
  exact ⟨x, List.mem_of_getElem? hx, hxy⟩

/-- What holds of all workers of one pool and not of a woken one holds of all workers of the other. -/
theorem ahead_forall {x : WorkerPc} (h : List.Forall₂ Ahead xs s.workers) (hx : x ≠ .woken) (hxs : ∀ pc ∈ xs, pc = x) :
    ∀ pc ∈ s.workers, pc = x := by
  intro pc hpc
  obtain ⟨i, hi⟩ := List.getElem?_of_mem hpc
  obtain ⟨v, hv, hahead⟩ := ahead_mem h hi
  obtain rfl := hxs v hv
  exact hahead.eq_of_ne_woken hx

theorem ahead_forall_ne {x : WorkerPc} (h : List.Forall₂ Ahead xs s.workers) (hx : x ≠ .blocked)
    (hxs : ∀ pc ∈ xs, pc ≠ x) : ∀ pc ∈ s.workers, pc ≠ x := by
  rintro pc hpc rfl
  obtain ⟨i, hi⟩ := List.getElem?_of_mem hpc
  exact hxs pc (List.mem_of_getElem? (ahead_get_of_ne h hi hx)) rfl

theorem ahead_task (h : List.Forall₂ Ahead xs s.workers) :
    xs.filterMap WorkerPc.task = s.workers.filterMap WorkerPc.task := by
  generalize s.workers = ys at h
  induction h with
  | nil => rfl
  | @cons x y xs ys hxy _ ih =>
    have htask : x.task = y.task := by
      cases hxy with
      | inl heq => rw [heq]
      | inr hwoken =>
        obtain ⟨rfl, rfl⟩ := hwoken
        rfl
    simp only [List.filterMap_cons, htask, ih]

theorem inside_iff_ahead {o : Owner} (h : List.Forall₂ Ahead xs s.workers) :
    { s with workers := xs }.inside o ↔ s.inside o := by
  cases o with
  | push k | stop c => rfl
  | worker i =>
    constructor
    · rintro ⟨pc, hpc, hlocked⟩
      have hne : pc ≠ .woken := by
        rintro rfl
        cases hlocked
      exact ⟨pc, ahead_get_of_ne_woken h hpc hne, hlocked⟩
    · rintro ⟨pc, hpc, hlocked⟩
      have hne : pc ≠ .blocked := by
        rintro rfl
        cases hlocked
      exact ⟨pc, ahead_get_of_ne h hpc hne, hlocked⟩

theorem serving_of_ahead (h : List.Forall₂ Ahead xs s.workers) (hserving : Serving { s with workers := xs }) :
    Serving s where
  ran := hserving.ran
  running := hserving.running
  workers := ahead_forall_ne h WorkerPc.noConfusion hserving.workers
  started i hi := hserving.started i (ahead_get_of_ne h hi WorkerPc.noConfusion)
  stops := hserving.stops
  stopCalled := hserving.stopCalled

theorem phase_of_ahead (h : List.Forall₂ Ahead xs s.workers) (hphase : Phase { s with workers := xs }) : Phase s := by
  rcases hphase with hfresh | hserving | ⟨c, hstopping⟩ | hover
  · have hworkers := ahead_forall h WorkerPc.noConfusion hfresh.workers
    exact .inl ⟨hfresh.ran, hfresh.stopCalled, hfresh.running, hworkers, hfresh.caller, hfresh.stops⟩
  · exact .inr (.inl (serving_of_ahead h hserving))
  · have hworkers := ahead_forall_ne h WorkerPc.noConfusion hstopping.workers
    refine .inr (.inr (.inl ⟨c, hstopping.ran, hstopping.stopCalled, hstopping.running, hworkers, hstopping.caller, ?_,
      hstopping.stops⟩))
    refine hstopping.joined.imp_right ?_
    rintro ⟨j, hc, hj⟩
    exact ⟨j, hc, fun i hi => ahead_get_of_ne_woken h (hj i hi) WorkerPc.noConfusion⟩
  · exact .inr (.inr (.inr ⟨hover.ran, hover.stopCalled, ahead_forall h WorkerPc.noConfusion hover.workers⟩))

theorem Live.carried (hlive : Live { s with workers := xs }) (h : List.Forall₂ Ahead xs s.workers) : Carried s where
  held o ho := (inside_iff_ahead h).mp (hlive.held o ho)
  mutex := hlive.life.kept.mutex.mono fun _ hin => (inside_iff_ahead h).mpr hin
  tested := by
    constructor
    · intro i hi
      exact hlive.life.tested.testing i (ahead_get_of_ne h hi WorkerPc.noConfusion)
    · intro i hi
      exact hlive.life.tested.taking i (ahead_get_of_ne h hi WorkerPc.noConfusion)
  phase := phase_of_ahead h hlive.life.phase
  apart := hlive.life.apart
  tasks := by
    have hkept := hlive.life.kept.tasks
    refine ⟨hkept.fifo, hkept.nodup, hkept.queued, ?_⟩
    rw [← ahead_task h]
    exact hkept.held
  manned hnil := by
    have hlength := h.length_eq
    rw [hnil] at hlength
    exact hlive.life.kept.awake.manned (List.eq_nil_of_length_eq_zero hlength)
  waits i hi := by
    have hwaiting := ahead_get_of_ne h hi WorkerPc.noConfusion
    exact ⟨hlive.life.kept.awake.waits i hwaiting, hlive.roused.running_of_waiting hlive.life.kept.mutex hwaiting⟩
  starting := hlive.roused.starting

end Behind

section Still
variable {s t : ThreadPool} {op : ThreadPoolOp}

/-- What a step leaves as it is that the condition has no part in. -/
structure Still (s t : ThreadPool) : Prop where
  length : t.workers.length = s.workers.length
  blocked : ∀ i : ℕ, t.workers[i]? = some .blocked ↔ s.workers[i]? = some .blocked
  signalling : ∀ k : ℕ, s.pushes[k]? = some .signalling → t.pushes[k]? = some .signalling
  broadcasting : ∀ c : ℕ, s.stops[c]? = some .broadcasting → t.stops[c]? = some .broadcasting
  queue : t.queue ≠ [] → s.queue ≠ []
  cleared : t.running = false → s.running = false ∨ ∃ c : ℕ, t.stops[c]? = some .broadcasting

/-- Of a list nothing is seen of a place that neither held nor holds the value. -/
theorem set_eq_some_iff {α : Type*} {l : List α} {a b v : α} {i : ℕ} (hi : l[i]? = some a) (ha : a ≠ v) (hb : b ≠ v)
    (j : ℕ) : (l.set i b)[j]? = some v ↔ l[j]? = some v := by
  by_cases hji : j = i
  · subst hji
    rw [set_self hi, hi]
    exact iff_of_false (fun h => hb (Option.some.inj h)) (fun h => ha (Option.some.inj h))
  · rw [set_of_ne hji]

theorem Still.owner (h : Still s t) (o : Option Owner) : Still s { t with owner := o } :=
  ⟨h.length, h.blocked, h.signalling, h.broadcasting, h.queue, h.cleared⟩

theorem Still.worker {i : ℕ} {a b : WorkerPc} (hi : s.workers[i]? = some a) (ha : a ≠ .blocked) (hb : b ≠ .blocked) :
    Still s (s.setWorker i b) :=
  ⟨List.length_set, set_eq_some_iff hi ha hb, fun _ h => h, fun _ h => h, fun h => h, .inl⟩

theorem Still.push {k : ℕ} {a b : PushPc} (hk : s.pushes[k]? = some a) (ha : a ≠ .signalling) (hb : b ≠ .signalling) :
    Still s (s.setPush k b) :=
  ⟨rfl, fun _ => .rfl, fun j h => (set_eq_some_iff hk ha hb j).mpr h, fun _ h => h, fun h => h, .inl⟩

theorem Still.stop {c : ℕ} {a b : StopPc} (hc : s.stops[c]? = some a) (ha : a ≠ .broadcasting) (hb : b ≠ .broadcasting) :
    Still s (s.setStop c b) :=
  ⟨rfl, fun _ => .rfl, fun _ h => h, fun d h => (set_eq_some_iff hc ha hb d).mpr h, fun h => h, .inl⟩

/-- Nobody moves but the caller. -/
theorem Still.same (hworkers : t.workers = s.workers) (hpushes : t.pushes = s.pushes) (hstops : t.stops = s.stops)
    (hqueue : t.queue = s.queue) (hrunning : t.running = false → s.running = false) : Still s t where
  length := congrArg List.length hworkers
  blocked i := by rw [hworkers]
  signalling k h := by rwa [hpushes]
  broadcasting c h := by rwa [hstops]
  queue h := by rwa [← hqueue]
  cleared h := .inl (hrunning h)

theorem still_of_pass (ht : ThreadPoolPass s op t)
    (hwork : ∀ i : ℕ, op = .work i → s.workers[i]? ≠ some .waiting ∧ s.workers[i]? ≠ some .blocked)
    (hpush : ∀ k j : ℕ, op = .stepPush k j → s.pushes[k]? ≠ some .emplacing ∧ s.pushes[k]? ≠ some .signalling)
    (hstop : ∀ c : ℕ, op = .stepStop c → s.stops[c]? ≠ some .broadcasting) : Still s t := by
  cases ht with
  | runs => exact .same rfl rfl rfl rfl nofun
  | ranBefore | startedBefore | runEnd | destroy | destroyJoin | destroyed => exact .same rfl rfl rfl rfl id
  | started hcaller hj =>
    have hset : Still s (s.setWorker _ .outer) := .worker hj WorkerPc.noConfusion WorkerPc.noConfusion
    exact ⟨hset.length, hset.blocked, hset.signalling, hset.broadcasting, hset.queue, hset.cleared⟩
  | move hi hmove =>
    apply Still.worker hi _ (move_ne_blocked hmove).1
    rintro rfl
    exact (hwork _ rfl).2 hi
  | @lock i pc hi hpc =>
    have hne : pc ≠ .blocked := by rcases hpc with rfl | rfl <;> exact WorkerPc.noConfusion
    exact Still.owner (.worker hi hne WorkerPc.noConfusion) _
  | wait hi => exact absurd hi (hwork _ rfl).1
  | back hi => exact Still.owner (.worker hi WorkerPc.noConfusion WorkerPc.noConfusion) _
  | @take i task rest hi hq =>
    have hset : Still s (s.setWorker i (.running task)) := .worker hi WorkerPc.noConfusion WorkerPc.noConfusion
    refine ⟨hset.length, hset.blocked, hset.signalling, hset.broadcasting, fun _ => ?_, hset.cleared⟩
    rw [hq]
    exact List.cons_ne_nil _ _
  | @finish i task hi =>
    have hset : Still s (s.setWorker i .outer) := .worker hi WorkerPc.noConfusion WorkerPc.noConfusion
    exact ⟨hset.length, hset.blocked, hset.signalling, hset.broadcasting, hset.queue, hset.cleared⟩
  | pushTask => exact ⟨rfl, fun _ => .rfl, fun _ h => append_of_some h, fun _ h => h, fun h => h, .inl⟩
  | refused hk | passed hk => exact .push hk PushPc.noConfusion PushPc.noConfusion
  | lockPush hk => exact Still.owner (.push hk PushPc.noConfusion PushPc.noConfusion) _
  | emplace hk => exact absurd hk (hpush _ _ rfl).1
  | signal hk | lost hk => exact absurd hk (hpush _ _ rfl).2
  | stop => exact ⟨rfl, fun _ => .rfl, fun _ h => h, fun _ h => append_of_some h, fun h => h, .inl⟩
  | lockStop hc => exact Still.owner (.stop hc StopPc.noConfusion StopPc.noConfusion) _
  | @clear c hc hrun =>
    refine ⟨rfl, fun _ => .rfl, fun _ h => h, fun d hd => ?_, fun h => h, fun _ => .inr ⟨_, set_self hc⟩⟩
    have hdc : d ≠ c := by
      rintro rfl
      cases hc.symm.trans hd
    exact (set_of_ne hdc).trans hd
  | late hc => exact Still.owner (.stop hc StopPc.noConfusion StopPc.noConfusion) _
  | broadcast hc => exact absurd hc (hstop _ rfl)
  | join hc | joined hc => exact .stop hc StopPc.noConfusion StopPc.noConfusion

end Still

end ThreadPool

namespace WindowsPool

open ThreadPool

/-! ## Who goes to a queued task -/

/-- The worker waits for the event, or is going to. -/
def Asleep (s : WindowsPool) (i : ℕ) : Prop :=
  s.pool.workers[i]? = some .blocked ∧ (s.waitPc i = .count ∨ s.waitPc i = .wait)

/-- A queued task is not left to workers that are all asleep. A `CondSignal` sets no event after a broadcast: the
event of the broadcast is set still or going to be, or somebody resets it and goes to the queue. -/
structure Wakes (s : WindowsPool) : Prop where
  sent : s.cond.state = .csCondBroadcast → s.cond.cond = true ∨
    (∃ i : ℕ, s.pool.workers[i]? = some .blocked ∧ s.waitPc i = .storeNormal) ∨
    ∃ c : ℕ, s.pool.stops[c]? = some .broadcasting
  served : s.pool.queue ≠ [] → s.cond.cond = true ∨ (∃ i < s.pool.workers.length, ¬ s.Asleep i) ∨
    ∃ k : ℕ, s.pool.pushes[k]? = some .signalling

section Wakes
variable {s t : WindowsPool} {op : ThreadPoolOp} {i k c : ℕ}

theorem not_asleep_of_ne {pc : WorkerPc} (hi : s.pool.workers[i]? = some pc) (hpc : pc ≠ .blocked) : ¬ s.Asleep i := by
  intro h
  exact hpc (Option.some.inj (hi.symm.trans h.1))

theorem asleep_iff_still (h : Still s.pool t.pool) (hwait : t.waitPc = s.waitPc) : t.Asleep i ↔ s.Asleep i := by
  rw [Asleep, Asleep, h.blocked, hwait]

theorem Wakes.still (h : Wakes s) (hstill : Still s.pool t.pool) (hwait : t.waitPc = s.waitPc)
    (hcond : t.cond = s.cond) : Wakes t where
  sent hstate := by
    rw [hcond] at hstate ⊢
    rcases h.sent hstate with hset | ⟨i, hi, hpc⟩ | ⟨c, hc⟩
    · exact .inl hset
    · exact .inr (.inl ⟨i, (hstill.blocked i).mpr hi, hwait ▸ hpc⟩)
    · exact .inr (.inr ⟨c, hstill.broadcasting c hc⟩)
  served hq := by
    rw [hcond]
    rcases h.served (hstill.queue hq) with hset | ⟨i, hlt, hi⟩ | ⟨k, hk⟩
    · exact .inl hset
    · exact .inr (.inl ⟨i, hstill.length ▸ hlt, fun hasleep => hi ((asleep_iff_still hstill hwait).mp hasleep)⟩)
    · exact .inr (.inr ⟨k, hstill.signalling k hk⟩)

/-- A worker inside `CondWait` resets the event, or leaves the event and the note of what was sent alone. -/
theorem waitMove_cases {cond cond' : Condition} {pc pc' : CondWaitPc} (h : WaitMove cond pc pc' cond') :
    pc' = .storeNormal ∨ cond'.cond = cond.cond ∧ cond'.state = cond.state ∧ pc ≠ .storeNormal ∧
      (pc' = .count ∨ pc' = .wait → pc = .count) := by
  cases h with
  | resetEvent => exact .inl rfl
  | count | wait | uncount | single | notSingle | broadcast | last => simp

theorem Wakes.goes {pc : CondWaitPc} {cond : Condition} (h : Wakes s) (hi : s.pool.workers[i]? = some .blocked)
    (hmove : WaitMove s.cond (s.waitPc i) pc cond) : Wakes (s.goWait i pc cond) := by
  have hself : (s.goWait i pc cond).waitPc i = pc := Function.update_self ..
  have hother {j : ℕ} (hji : j ≠ i) : (s.goWait i pc cond).waitPc j = s.waitPc j := Function.update_of_ne hji ..
  rcases waitMove_cases hmove with hreset | ⟨hset, hstate, hleaves, hasleep⟩
  · obtain ⟨hlt, -⟩ := List.getElem?_eq_some_iff.mp hi
    refine ⟨fun _ => .inr (.inl ⟨i, hi, hself.trans hreset⟩), fun _ => .inr (.inl ⟨i, hlt, ?_⟩)⟩
    rintro ⟨-, hpc⟩
    rw [hself, hreset] at hpc
    simp at hpc
  · constructor
    · intro hbroadcast
      rcases h.sent (hstate.symm.trans hbroadcast) with hcond | ⟨j, hj, hpc⟩ | hsend
      · exact .inl (hset.trans hcond)
      · have hji : j ≠ i := by
          rintro rfl
          exact hleaves hpc
        exact .inr (.inl ⟨j, hj, (hother hji).trans hpc⟩)
      · exact .inr (.inr hsend)
    · intro hq
      rcases h.served hq with hcond | ⟨j, hlt, hj⟩ | hsignal
      · exact .inl (hset.trans hcond)
      · refine .inr (.inl ⟨j, hlt, fun hsleeps => hj ⟨hsleeps.1, ?_⟩⟩)
        by_cases hji : j = i
        · subst hji
          have hpc := hsleeps.2
          rw [hself] at hpc
          exact .inl (hasleep hpc)
        · rw [← hother hji]
          exact hsleeps.2
      · exact .inr (.inr hsignal)

theorem Wakes.leaves {cond : Condition} (h : Wakes s) (hi : s.pool.workers[i]? = some .blocked)
    (hend : WaitEnd s.cond (s.waitPc i) cond) : Wakes (s.endWait i cond) := by
  have hwoken : (s.endWait i cond).pool.workers[i]? = some .woken := set_self hi
  obtain ⟨hlt, -⟩ := List.getElem?_eq_some_iff.mp hwoken
  have hawake := not_asleep_of_ne hwoken WorkerPc.noConfusion
  refine ⟨fun hstate => ?_, fun _ => .inr (.inl ⟨i, hlt, hawake⟩)⟩
  have hsame : cond = s.cond ∧ s.waitPc i ≠ .storeNormal := by
    generalize s.waitPc i = pc at hend
    cases hend with
    | notBroadcast | notLast => exact ⟨rfl, CondWaitPc.noConfusion⟩
    | storeNormal => cases hstate
  obtain ⟨rfl, hpc⟩ := hsame
  rcases h.sent hstate with hcond | ⟨j, hj, hstores⟩ | hsend
  · exact .inl hcond
  · have hji : j ≠ i := by
      rintro rfl
      exact hpc hstores
    exact .inr (.inl ⟨j, (set_of_ne hji).trans hj, hstores⟩)
  · exact .inr (.inr hsend)

/-- A `CondSignal` that sets no event finds the one of a broadcast, or a worker that is going to the queue. -/
theorem Wakes.skips (h : Wakes s) (hmutex : Exclusive s.pool.owner s.pool.inside)
    (hk : s.pool.pushes[k]? = some .signalling) (hstate : s.cond.state = .csCondBroadcast) :
    Wakes (s.endSignal k s.cond) := by
  refine ⟨fun _ => h.sent hstate, fun _ => ?_⟩
  rcases h.sent hstate with hcond | ⟨i, hi, hpc⟩ | ⟨c, hc⟩
  · exact .inl hcond
  · obtain ⟨hlt, -⟩ := List.getElem?_eq_some_iff.mp hi
    refine .inr (.inl ⟨i, hlt, ?_⟩)
    rintro ⟨-, hasleep⟩
    rw [show (s.endSignal k s.cond).waitPc i = .storeNormal from hpc] at hasleep
    simp at hasleep
  · have hpush : s.pool.inside (.push k) := ⟨.signalling, hk, rfl⟩
    have hstop : s.pool.inside (.stop c) := ⟨.broadcasting, hc, rfl⟩
    cases hmutex.eq hpush hstop

/-- The step lemma. -/
theorem wakes_step (h : Wakes s) (hcarried : Carried s.pool) (ht : WindowsPass s op t) : Wakes t := by
  cases ht with
  | plain hplain hp =>
    refine h.still (still_of_pass hp ?_ ?_ ?_) rfl rfl
    · rintro i rfl
      exact hplain
    · rintro k j rfl
      exact hplain
    · rintro c rfl
      exact hplain.2
  | @enters i hi =>
    refine ⟨fun hstate => ?_, fun hq => absurd (hcarried.waits i hi).1 hq⟩
    rcases h.sent hstate with hcond | ⟨j, hj, hpc⟩ | hsend
    · exact .inl hcond
    · have hji : j ≠ i := by
        rintro rfl
        cases hi.symm.trans hj
      exact .inr (.inl ⟨j, (set_of_ne hji).trans hj, (Function.update_of_ne hji ..).trans hpc⟩)
    · exact .inr (.inr hsend)
  | goes hi hmove => exact h.goes hi hmove
  | leaves hi hend => exact h.leaves hi hend
  | emplace hk => exact ⟨h.sent, fun _ => .inr (.inr ⟨_, set_self hk⟩)⟩
  | skips hk hpc hstate => exact h.skips hcarried.mutex hk hstate
  | reads => exact ⟨h.sent, h.served⟩
  | storeSingle hk => exact ⟨nofun, fun _ => .inr (.inr ⟨_, hk⟩)⟩
  | signal | broadcast => exact ⟨fun _ => .inl rfl, fun _ => .inl rfl⟩
  | @test c p hc hp =>
    refine h.still (still_of_pass hp ?_ ?_ ?_) rfl rfl
    · exact nofun
    · exact nofun
    · intro d hd hbroadcasting
      cases hd
      cases hc.symm.trans hbroadcasting
  | storeBroadcast hc => exact ⟨fun _ => .inr (.inr ⟨_, hc⟩), h.served⟩

/-- The pool on POSIX threads that makes the same run is a sound one. -/
def Matched (s : WindowsPool) : Prop := ∃ a, Refines s a ∧ Live a

theorem Matched.carried (h : Matched s) : Carried s.pool := by
  obtain ⟨a, href, hlive⟩ := h
  rw [href.rest] at hlive
  exact hlive.carried href.workers

theorem matched_step (h : Matched s) (ht : WindowsPass s op t) : Matched t := by
  obtain ⟨a, href, hlive⟩ := h
  obtain ⟨b, hb, hfollows⟩ := refines_step href ht
  cases hfollows with
  | inl hstep =>
    obtain ⟨op', -, hop⟩ := hstep
    exact ⟨b, hb, hlive.step (threadPoolPass_of_step hop)⟩
  | inr hsame => exact ⟨b, hb, hsame.1 ▸ hlive⟩

/-- What is known of a pool on Windows in every run. -/
structure Known (s : WindowsPool) : Prop where
  matched : Matched s
  wakes : Wakes s

theorem known_of_exec {nThreadNum : ℤ} {processors : ℕ} {ops : List ThreadPoolOp} (hprocessors : 0 < processors)
    (hs : exec WindowsPool.step (.new nThreadNum processors) ops = some s) : Known s := by
  apply invariant_of_exec _ _ hs
  · intro s op t h ht
    have hpass := windowsPass_of_step ht
    exact ⟨matched_step h.matched hpass, wakes_step h.wakes h.matched.carried hpass⟩
  · refine ⟨⟨_, ⟨List.forall₂_same.mpr fun pc _ => .refl pc, rfl⟩, live_new hprocessors⟩, nofun, ?_⟩
    exact fun hq => absurd rfl hq

end Wakes

end WindowsPool

end Chaos
